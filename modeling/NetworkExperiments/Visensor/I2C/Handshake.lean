import NetworkExperiments.Visensor.I2C.RegisterFile

/-!
# The handshake of I2CBusRaw

The hardware is taken as what the driver sees of it during a call: the values
of the status register and of the RX FIFO, in the order in which they are read.
The accesses of the call are recorded.

After its loops the driver looks at the TX FIFO once more, but neither at the
bus nor at the RX FIFO.  A failure of the handshake goes unreported exactly when
the TX FIFO is empty then and one of these two is not ready in time.
-/

namespace NetworkExperiments.Visensor.I2C

open I2CBusRaw

namespace Handshake

/-- The values of the status register and of the RX FIFO, by the number of
reads before. -/
structure Hardware where
  status : ℕ → ℕ
  rx : ℕ → ℕ

inductive Access
  | status (value : ℕ)
  | push (word : ℕ)
  | pop (value : ℕ)
  deriving DecidableEq, Repr

/-- The numbers of reads so far, and all accesses. -/
structure Recorder where
  statusReads : ℕ
  rxReads : ℕ
  log : List Access
  deriving DecidableEq, Repr

def start : Recorder := ⟨0, 0, []⟩

/-- The registers of the hardware, with a record of the accesses. -/
def window (hw : Hardware) : Window Recorder where
  readWord s offset :=
    if offset = 0x104 then
      (hw.status s.statusReads,
        { s with
          statusReads := s.statusReads + 1
          log := s.log ++ [.status (hw.status s.statusReads)] })
    else if offset = 0x10C then
      (hw.rx s.rxReads,
        { s with
          rxReads := s.rxReads + 1
          log := s.log ++ [.pop (hw.rx s.rxReads)] })
    else (0, s)
  writeWord s offset value :=
    if offset = 0x108 then { s with log := s.log ++ [.push value] } else s

/-! ## What a call is to report -/

/-- The values of the status register before the first word is sent, the last
one first. -/
def statusesBefore : List Access → List ℕ → List ℕ
  | .status value :: log, values => statusesBefore log (value :: values)
  | .pop _ :: log, values => statusesBefore log values
  | .push _ :: _, values => values
  | [], values => values

/-- Before the first word, the last status reads show that the TX FIFO is empty
and the bus is not busy. -/
def Ready (log : List Access) : Prop :=
  match statusesBefore log [] with
  | tx :: bus :: _ => txNotEmpty tx = false ∧ busy bus = false
  | _ => False

/-- For each byte read, whether the access before it has shown that the RX FIFO
is not empty. -/
def reported : Bool → List Access → List Bool
  | _, .status value :: log => reported (!rxEmpty value) log
  | _, .push _ :: log => reported false log
  | ready, .pop _ :: log => ready :: reported false log
  | _, [] => []

/-- A call sends words to a core that is ready, or fails and sends none. -/
def SendsWhenReady (result : Result Recorder) : Prop :=
  Ready result.state.log ∨
    (result.ret ≠ 0 ∧ ∀ word, Access.push word ∉ result.state.log)

/-- A call returns two bytes that have been reported, or fails and leaves the
data as they are. -/
def ReturnsReported (data : Int16) (result : Result Recorder) : Prop :=
  reported false result.state.log = [true, true] ∨
    (result.ret ≠ 0 ∧ result.data = data)

/-- The call reports failures of the handshake. -/
def ReportsFailures (hw : Hardware) : Call → Prop
  | .writeReg regAddr data =>
      SendsWhenReady (writeReg (window hw) start regAddr data)
  | .readReg regAddr data =>
      SendsWhenReady (readReg (window hw) start regAddr data) ∧
        ReturnsReported data (readReg (window hw) start regAddr data)

/-! ## The reads of the loops -/

/-- The number of the last status read of a loop that starts with read `k`. -/
def lastRead (hw : Hardware) (waiting : ℕ → Bool) : ℕ → ℕ → ℕ
  | 0, k => k
  | n + 1, k =>
      if waiting (hw.status k) then lastRead hw waiting n (k + 1) else k

/-- One of the reads of a loop that starts with read `k` ends it. -/
def EndsInTime (hw : Hardware) (waiting : ℕ → Bool) (k : ℕ) : Prop :=
  ∃ i < 11, waiting (hw.status (k + i)) = false

instance (hw : Hardware) (waiting : ℕ → Bool) (k : ℕ) :
    Decidable (EndsInTime hw waiting k) :=
  inferInstanceAs (Decidable (∃ i < 11, _))

/-- The first read of the loop for the bus, and the read after its last one. -/
def busRead (hw : Hardware) : ℕ := lastRead hw txNotEmpty 10 0 + 1

def checkRead (hw : Hardware) : ℕ := lastRead hw busy 10 (busRead hw) + 1

/-- The first reads of the two loops for the RX FIFO. -/
def hiRead (hw : Hardware) : ℕ :=
  lastRead hw txNotEmpty 10 (lastRead hw txNotEmpty 10 (checkRead hw + 1) + 1) +
    1

def loRead (hw : Hardware) : ℕ := lastRead hw rxEmpty 10 (hiRead hw) + 1

/-- The TX FIFO is not empty after the loops, or what the driver does not look
at again is ready in time. -/
def Timely (hw : Hardware) : Call → Prop
  | .writeReg _ _ =>
      txNotEmpty (hw.status (checkRead hw)) = true ∨
        EndsInTime hw busy (busRead hw)
  | .readReg _ _ =>
      txNotEmpty (hw.status (checkRead hw)) = true ∨
        (EndsInTime hw busy (busRead hw) ∧ EndsInTime hw rxEmpty (hiRead hw) ∧
          EndsInTime hw rxEmpty (loRead hw))

theorem endsInTime_iff {hw : Hardware} {waiting : ℕ → Bool} (k : ℕ) :
    EndsInTime hw waiting k ↔
      waiting (hw.status (lastRead hw waiting 10 k)) = false := by
  have hloop : ∀ n k, (∃ i < n + 1, waiting (hw.status (k + i)) = false) ↔
      waiting (hw.status (lastRead hw waiting n k)) = false := by
    intro n
    induction n with
    | zero =>
        intro k
        simp [lastRead]
    | succ n ih =>
        intro k
        rw [lastRead]
        split
        · next hwaiting =>
            rw [← ih (k + 1)]
            constructor
            · rintro ⟨i, hi, hdone⟩
              cases i with
              | zero =>
                  rw [Nat.add_zero, hwaiting] at hdone
                  cases hdone
              | succ i =>
                  refine ⟨i, by omega, ?_⟩
                  rw [Nat.add_assoc, Nat.add_comm 1 i]
                  exact hdone
            · rintro ⟨i, hi, hdone⟩
              refine ⟨i + 1, by omega, ?_⟩
              rw [Nat.add_comm i 1, ← Nat.add_assoc]
              exact hdone
        · next hdone =>
            exact iff_of_true ⟨0, by omega, Bool.eq_false_iff.mpr hdone⟩
              (Bool.eq_false_iff.mpr hdone)
  exact hloop 10 k

/-- What a loop reads. -/
theorem poll_window (hw : Hardware) (waiting : ℕ → Bool) (n : ℕ)
    (s : Recorder) :
    ∃ values : List ℕ,
      (poll (window hw) waiting n s).2.statusReads =
        lastRead hw waiting n s.statusReads + 1 ∧
      (poll (window hw) waiting n s).2.log =
        s.log ++ (values.map Access.status ++
          [.status (hw.status (lastRead hw waiting n s.statusReads))]) := by
  induction n generalizing s with
  | zero => exact ⟨[], rfl, rfl⟩
  | succ n ih =>
      rw [poll, lastRead]
      split
      · next hwaiting =>
          have hstatus : waiting (hw.status s.statusReads) = true := hwaiting
          obtain ⟨values, hreads, hlog⟩ := ih ((window hw).readWord s 0x104).2
          refine ⟨hw.status s.statusReads :: values, ?_, ?_⟩
          · rw [if_pos hstatus, hreads]
            rfl
          · rw [if_pos hstatus, hlog]
            exact List.append_assoc ..
      · next hdone =>
          have hstatus : ¬ waiting (hw.status s.statusReads) = true := hdone
          refine ⟨[], ?_, ?_⟩
          · rw [if_neg hstatus]
            rfl
          · rw [if_neg hstatus]
            rfl

/-! ## The start of a call -/

theorem waitReady_window (hw : Hardware) :
    (waitReady (window hw) start).1 =
        !txNotEmpty (hw.status (checkRead hw)) ∧
      (waitReady (window hw) start).2.2.statusReads = checkRead hw + 1 ∧
      ∃ values : List ℕ, (waitReady (window hw) start).2.2.log =
        (values ++ [hw.status (lastRead hw busy 10 (busRead hw)),
          hw.status (checkRead hw)]).map Access.status := by
  obtain ⟨txValues, htxReads, htxLog⟩ := poll_window hw txNotEmpty 10 start
  obtain ⟨busValues, hbusReads, hbusLog⟩ := poll_window hw busy 10
    (poll (window hw) txNotEmpty 10 start).2
  rw [htxReads] at hbusReads hbusLog
  refine ⟨?_, ?_, txValues ++
    [hw.status (lastRead hw txNotEmpty 10 0)] ++ busValues, ?_⟩
  · change (!txNotEmpty
      (hw.status (poll (window hw) busy 10 _).2.statusReads)) = _
    rw [hbusReads]
    rfl
  · change (poll (window hw) busy 10 _).2.statusReads + 1 = _
    rw [hbusReads]
    rfl
  · change (poll (window hw) busy 10 _).2.log ++ [.status (hw.status
      (poll (window hw) busy 10 _).2.statusReads)] = _
    rw [hbusReads, hbusLog, htxLog]
    simp [start, busRead, checkRead]

theorem statusesBefore_status (values : List ℕ) (log : List Access)
    (before : List ℕ) :
    statusesBefore (values.map Access.status ++ log) before =
      statusesBefore log (values.reverse ++ before) := by
  induction values generalizing before with
  | nil => rfl
  | cons value values ih =>
      rw [List.map_cons, List.cons_append, statusesBefore, ih,
        List.reverse_cons, List.append_assoc]
      rfl

theorem ready_push (values : List ℕ) (bus tx word : ℕ) (log : List Access) :
    Ready ((values ++ [bus, tx]).map Access.status ++ .push word :: log) ↔
      txNotEmpty tx = false ∧ busy bus = false := by
  rw [Ready, statusesBefore_status, statusesBefore, List.reverse_append]
  rfl

/-- A call that goes on, having found the TX FIFO empty. -/
theorem sendsWhenReady_of_push {result : Result Recorder} {values : List ℕ}
    {bus tx word : ℕ} {log : List Access}
    (hlog : result.state.log =
      (values ++ [bus, tx]).map Access.status ++ .push word :: log)
    (htx : txNotEmpty tx = false) :
    SendsWhenReady result ↔ busy bus = false := by
  have hpush : Access.push word ∈ result.state.log := by
    rw [hlog]
    exact List.mem_append_right _ List.mem_cons_self
  rw [SendsWhenReady, hlog, ready_push]
  constructor
  · rintro (⟨-, hbus⟩ | ⟨-, hnone⟩)
    · exact hbus
    · exact absurd (hlog ▸ hpush) (hnone word)
  · intro hbus
    exact Or.inl ⟨htx, hbus⟩

theorem sendsWhenReady_of_fails {result : Result Recorder}
    (hret : result.ret = 1)
    (hlog : ∃ values : List ℕ, result.state.log = values.map Access.status) :
    SendsWhenReady result := by
  obtain ⟨values, hlog⟩ := hlog
  refine Or.inr ⟨by rw [hret]; decide, fun word hmem => ?_⟩
  rw [hlog] at hmem
  obtain ⟨value, -, hvalue⟩ := List.mem_map.mp hmem
  cases hvalue

/-! ## Writes -/

theorem reportsFailures_writeReg_iff (hw : Hardware) (regAddr : UInt8)
    (data : Int16) :
    ReportsFailures hw (.writeReg regAddr data) ↔
      Timely hw (.writeReg regAddr data) := by
  obtain ⟨hready, -, values, hlog⟩ := waitReady_window hw
  rw [ReportsFailures, Timely, endsInTime_iff]
  cases htx : txNotEmpty (hw.status (checkRead hw)) with
  | true =>
      rw [htx] at hready
      refine iff_of_true ?_ (Or.inl rfl)
      rw [writeReg, hready]
      exact sendsWhenReady_of_fails rfl ⟨_, hlog⟩
  | false =>
      rw [htx] at hready
      have hpush : ∃ log, (writeReg (window hw) start regAddr data).state.log =
          (waitReady (window hw) start).2.2.log ++
            .push (deviceAddress <<< 1 ||| 1 <<< 8) :: log := by
        rw [writeReg, hready]
        simp [window]
      obtain ⟨log, hpush⟩ := hpush
      rw [hlog] at hpush
      rw [sendsWhenReady_of_push hpush htx]
      simp

/-! ## Reads -/

theorem exists_reported (ready : Bool) (values : List ℕ) (log : List Access) :
    ∃ ready', reported ready (values.map Access.status ++ log) =
      reported ready' log := by
  induction values generalizing ready with
  | nil => exact ⟨ready, rfl⟩
  | cons value values ih => exact ih (!rxEmpty value)

/-- Status reads count only by the last one. -/
theorem reported_status (ready : Bool) (values : List ℕ) (value : ℕ)
    (log : List Access) :
    reported ready (values.map Access.status ++ .status value :: log) =
      reported (!rxEmpty value) log := by
  obtain ⟨ready', hready⟩ :=
    exists_reported ready values (.status value :: log)
  exact hready

theorem reported_push (ready : Bool) (values : List ℕ) (word : ℕ)
    (log : List Access) :
    reported ready (values.map Access.status ++ .push word :: log) =
      reported false log := by
  obtain ⟨ready', hready⟩ := exists_reported ready values (.push word :: log)
  exact hready

/-- The words of a read, with no byte read among them. -/
theorem sendRead_window (hw : Hardware) (s : Recorder) (regAddr : UInt8) :
    (sendRead (window hw) s regAddr).2.statusReads =
        lastRead hw txNotEmpty 10
          (lastRead hw txNotEmpty 10 s.statusReads + 1) + 1 ∧
      ∃ word words, (sendRead (window hw) s regAddr).2.log =
          s.log ++ .push word :: words ∧
        ∀ ready log, reported ready (words ++ log) = reported false log := by
  let sent := poll (window hw) txNotEmpty 10
    ((window hw).writeWord
      ((window hw).writeWord s 0x108 (deviceAddress <<< 1 ||| 1 <<< 8)) 0x108
      regAddr.toNat)
  let restarted := poll (window hw) txNotEmpty 10
    ((window hw).writeWord sent.2 0x108
      (deviceAddress <<< 1 ||| 0x01 ||| 1 <<< 8))
  obtain ⟨values, hreads, hlog⟩ : ∃ values : List ℕ,
      sent.2.statusReads = lastRead hw txNotEmpty 10 s.statusReads + 1 ∧
      sent.2.log = s.log ++ [.push (deviceAddress <<< 1 ||| 1 <<< 8)] ++
        [.push regAddr.toNat] ++ (values.map Access.status ++
          [.status (hw.status (lastRead hw txNotEmpty 10 s.statusReads))]) :=
    poll_window hw txNotEmpty 10 _
  obtain ⟨values', hreads', hlog'⟩ : ∃ values : List ℕ,
      restarted.2.statusReads =
        lastRead hw txNotEmpty 10 sent.2.statusReads + 1 ∧
      restarted.2.log =
        sent.2.log ++ [.push (deviceAddress <<< 1 ||| 0x01 ||| 1 <<< 8)] ++
          (values.map Access.status ++
            [.status (hw.status
              (lastRead hw txNotEmpty 10 sent.2.statusReads))]) :=
    poll_window hw txNotEmpty 10 _
  refine ⟨?_, deviceAddress <<< 1 ||| 1 <<< 8,
    .push regAddr.toNat :: (values.map Access.status ++
      .status (hw.status (lastRead hw txNotEmpty 10 s.statusReads)) ::
        .push (deviceAddress <<< 1 ||| 0x01 ||| 1 <<< 8) ::
          (values'.map Access.status ++
            .status (hw.status
              (lastRead hw txNotEmpty 10 sent.2.statusReads)) ::
              [.push (0x02 ||| 1 <<< 9)])), ?_, ?_⟩
  · rw [← hreads]
    exact hreads'
  · change restarted.2.log ++ [.push (0x02 ||| 1 <<< 9)] = _
    rw [hlog', hlog]
    simp only [List.append_assoc, List.cons_append, List.nil_append]
  · intro ready log
    simp only [List.cons_append, List.append_assoc, reported, reported_status,
      List.nil_append]

theorem readByte_window (hw : Hardware) (s : Recorder) :
    (readByte (window hw) s).2.2.statusReads =
        lastRead hw rxEmpty 10 s.statusReads + 1 ∧
      ∃ (values : List ℕ) (value : ℕ), (readByte (window hw) s).2.2.log =
        s.log ++ (values.map Access.status ++
          [.status (hw.status (lastRead hw rxEmpty 10 s.statusReads)),
            .pop value]) := by
  obtain ⟨values, hreads, hlog⟩ := poll_window hw rxEmpty 10 s
  refine ⟨hreads, values, hw.rx (poll (window hw) rxEmpty 10 s).2.rxReads, ?_⟩
  change (poll (window hw) rxEmpty 10 s).2.log ++ [.pop _] = _
  rw [hlog, List.append_assoc, List.append_assoc]
  rfl

/-- What a read that goes on records after its first word. -/
theorem readReg_window {hw : Hardware}
    (htx : txNotEmpty (hw.status (checkRead hw)) = false) (regAddr : UInt8)
    (data : Int16) :
    (readReg (window hw) start regAddr data).ret = 0 ∧
      ∃ word log, (readReg (window hw) start regAddr data).state.log =
          (waitReady (window hw) start).2.2.log ++ .push word :: log ∧
        ∀ ready, reported ready log =
          [!rxEmpty (hw.status (lastRead hw rxEmpty 10 (hiRead hw))),
            !rxEmpty (hw.status (lastRead hw rxEmpty 10 (loRead hw)))] := by
  obtain ⟨hready, hreads, -⟩ := waitReady_window hw
  rw [htx] at hready
  let ready := (waitReady (window hw) start).2.2
  let sent := (sendRead (window hw) ready regAddr).2
  let hi := (readByte (window hw) sent).2.2
  obtain ⟨hsentReads, word, words, hsentLog, hwords⟩ :=
    sendRead_window hw ready regAddr
  obtain ⟨hhiReads, hiValues, hiByte, hhiLog⟩ := readByte_window hw sent
  obtain ⟨-, loValues, loByte, hloLog⟩ := readByte_window hw hi
  have hhiRead : sent.statusReads = hiRead hw := by
    rw [hsentReads, hreads]
    rfl
  have hloRead : hi.statusReads = loRead hw := by
    rw [hhiReads, hhiRead]
    rfl
  rw [hhiRead] at hhiLog
  rw [hloRead, hhiLog, hsentLog] at hloLog
  have hread : (readReg (window hw) start regAddr data).ret = 0 ∧
      (readReg (window hw) start regAddr data).state =
        (readByte (window hw) hi).2.2 := by
    rw [readReg, hready]
    exact ⟨rfl, rfl⟩
  refine ⟨hread.1, word, words ++ (hiValues.map Access.status ++
    .status (hw.status (lastRead hw rxEmpty 10 (hiRead hw))) :: .pop hiByte ::
      (loValues.map Access.status ++
        [.status (hw.status (lastRead hw rxEmpty 10 (loRead hw))),
          .pop loByte])), ?_, fun ready => ?_⟩
  · rw [hread.2, hloLog]
    simp only [List.append_assoc, List.cons_append, List.nil_append]
    rfl
  · rw [hwords, reported_status, reported, reported_status, reported, reported]

theorem reportsFailures_readReg_iff (hw : Hardware) (regAddr : UInt8)
    (data : Int16) :
    ReportsFailures hw (.readReg regAddr data) ↔
      Timely hw (.readReg regAddr data) := by
  obtain ⟨hready, -, values, hlog⟩ := waitReady_window hw
  rw [ReportsFailures, Timely, endsInTime_iff, endsInTime_iff, endsInTime_iff]
  cases htx : txNotEmpty (hw.status (checkRead hw)) with
  | true =>
      rw [htx] at hready
      refine iff_of_true ?_ (Or.inl rfl)
      rw [readReg, hready]
      exact ⟨sendsWhenReady_of_fails rfl ⟨_, hlog⟩,
        Or.inr ⟨Int.one_ne_zero, rfl⟩⟩
  | false =>
      obtain ⟨hret, word, log, hpush, hreported⟩ :=
        readReg_window htx regAddr data
      rw [hlog] at hpush
      have hbytes : ReturnsReported data
          (readReg (window hw) start regAddr data) ↔
            rxEmpty (hw.status (lastRead hw rxEmpty 10 (hiRead hw))) = false ∧
            rxEmpty (hw.status (lastRead hw rxEmpty 10 (loRead hw))) =
              false := by
        rw [ReturnsReported, hpush, reported_push, hreported, hret]
        simp
      rw [sendsWhenReady_of_push hpush htx, hbytes]
      simp

/-- The two calls report all failures of the handshake exactly when the TX FIFO
is not empty after the loops, or the bus and the RX FIFO are ready in time. -/
theorem reportsFailures_iff_timely (hw : Hardware) (call : Call) :
    ReportsFailures hw call ↔ Timely hw call := by
  cases call with
  | writeReg regAddr data => exact reportsFailures_writeReg_iff hw regAddr data
  | readReg regAddr data => exact reportsFailures_readReg_iff hw regAddr data

/-- Nothing answers: the TX FIFO is empty and the bus not busy, but no byte
arrives. -/
def silent : Hardware := ⟨fun _ => 2 ^ 7 + 2 ^ 6, fun _ => 0⟩

/-- A read returns zero then, and a value. -/
theorem silent_not_reported :
    ¬ ∀ (hw : Hardware) (call : Call), ReportsFailures hw call := by
  intro hall
  rcases (hall silent (.readReg 0 1)).2 with hreported | ⟨hret, -⟩
  · revert hreported
    decide
  · exact hret rfl

end Handshake

end NetworkExperiments.Visensor.I2C
