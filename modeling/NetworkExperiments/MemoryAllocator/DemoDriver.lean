import NetworkExperiments.Support.ByteMemory
import NetworkExperiments.Support.ByteOrder
import NetworkExperiments.Support.CInt
import NetworkExperiments.Support.Run

/-!
# The demo driver

`memory_allocator/demo_driver.c` is a character device with the registers of a
peripheral and two log buffers behind them.  This file models its functions on
the 32-bit board, and a system of processes that have the device open, next to
the interrupts and the work queue that switches the buffers.  Here `ioremap` and
the copies from and to the processes succeed, and nobody calls `lseek`.

`files_read_registers` is about what processes read and write.  The positions of
their files stay within the registers, so that the log can only be read with a
position of one's own; and a write with such a position overruns the buffer on
the stack of the kernel unless its lower 32 bits are a position in the
registers.  `idle_buffer_iff` says which of the two log buffers is read.
-/

namespace NetworkExperiments.MemoryAllocator.DemoDriver

open EventSystem

/-! ## The driver -/

/-- `no_of_bytes`: the size of the 32 registers. -/
def noOfBytes : ℕ := 128

/-- The memory of the peripheral from `register_address` on, the log buffers and
the work queue with its only work. -/
structure Driver where
  registers : ByteMemory
  logData : ByteMemory
  logData2 : ByteMemory
  currentBuffer : ℤ
  scheduled : Bool

inductive LogBuffer
  | logData
  | logData2
  deriving DecidableEq, Repr

def Driver.log (d : Driver) : LogBuffer → ByteMemory
  | .logData => d.logData
  | .logData2 => d.logData2

/-- `setup_buffer` stores the addresses of the log buffers. -/
def setupBuffer (order : ByteOrder) (logData logData2 : UInt32)
    (registers : ByteMemory) : ByteMemory :=
  (registers.write 0 4 fun k => (order.store logData).getD k 0).write 4 4
    fun k => (order.store logData2).getD k 0

def charBytes (text : String) : List UInt8 :=
  text.toList.map fun c => UInt8.ofNat c.toNat

/-- The bytes of the `struct Settings`: `ipv4`, `ipv6`, `port`, `mac`, `time`
and `addend`. -/
def settings : List UInt8 :=
  charBytes "ipv4" ++ charBytes "|ipv6__________|" ++ charBytes "po" ++
    charBytes "|mac_|" ++ charBytes "|_time_|" ++ charBytes "|_adde_|"

/-- `setup_ntp` stores the settings. -/
def setupNtp (registers : ByteMemory) : ByteMemory :=
  registers.write 0 settings.length fun k => settings.getD k 0

/-- The driver after `ntp_fpga_init`. -/
def ntpFpgaInit (order : ByteOrder) (logAddress logAddress2 : UInt32)
    (registers logData logData2 : ByteMemory) : Driver where
  registers := setupNtp (setupBuffer order logAddress logAddress2 registers)
  logData := logData
  logData2 := logData2
  currentBuffer := 0
  scheduled := false

/-- The buffer that `ntp_fpga_read` copies. -/
def currentLog (d : Driver) : LogBuffer :=
  if d.currentBuffer = 1 then .logData else .logData2

/-- `ntp_fpga_read`: the bytes for the process, and `*f_pos`. -/
def ntpFpgaRead (logDataSize : ℕ) (d : Driver) (count fPos : ℕ) :
    List UInt8 × ℕ :=
  if noOfBytes < fPos then
    if logDataSize ≤ fPos then ([], fPos)
    else
      let n := if count < logDataSize then count else logDataSize
      let n := if logDataSize - fPos < n then logDataSize - fPos else n
      ((d.log (currentLog d)).bytes 0 n, fPos + n)
  else if noOfBytes ≤ fPos then ([], fPos)
  else
    let n := if count < noOfBytes - fPos then count else noOfBytes
    let n := if noOfBytes - fPos < n then noOfBytes - fPos else n
    (d.registers.bytes fPos n, fPos + n)

/-- `no_of_bytes_to_write`.  The difference to the position is computed with 64
bits and a sign, and stored in 32 without. -/
def noOfBytesToWrite (count fPos : ℕ) : ℕ :=
  let n := if count ≤ noOfBytes then count else noOfBytes
  if (n : ℤ) > noOfBytes - fPos then CInt.toSize 32 (noOfBytes - fPos) else n

/-- `ntp_fpga_write` with the memory of the process from `buf` on: the value
returned.  There is none when more bytes are copied than `tmp` has. -/
def ntpFpgaWrite (d : Driver) (buf : ℕ → UInt8) (count fPos : ℕ) :
    Option (ℕ × Driver) :=
  let n := noOfBytesToWrite count fPos
  if noOfBytes < n then none
  else
    some (n, { d with registers := d.registers.write (fPos % 2 ^ 32) n buf })

/-- `queue_work` does nothing when the work is still scheduled. -/
def bufferFullHandler (d : Driver) : Driver := { d with scheduled := true }

def myWqFunction (d : Driver) : Driver :=
  { d with currentBuffer := (d.currentBuffer + 1).tmod 2 }

/-- The work queue takes the work and runs it. -/
def runWork (d : Driver) : Option Driver :=
  if d.scheduled then some (myWqFunction { d with scheduled := false })
  else none

/-! ## The processes -/

/-- An open file: its position, and what has been read with it. -/
structure File where
  position : ℕ
  data : List UInt8

/-- The driver and the open files; whether anything has been written, the number
of interrupts, and how many of them have found the work still scheduled. -/
structure System where
  driver : Driver
  files : List File
  written : Bool
  interrupts : ℕ
  coalesced : ℕ

/-- The system calls of processes, an interrupt when a log buffer is full, the
work queue, and the peripheral that fills the log buffers. -/
inductive Event
  | open
  | read (fd count : ℕ)
  | pread (count position : ℕ)
  | write (fd : ℕ) (buf : ℕ → UInt8) (count : ℕ)
  | pwrite (buf : ℕ → UInt8) (count position : ℕ)
  | interrupt
  | work
  | fill (logData logData2 : ByteMemory)

/-- A write at a position. -/
def writeAt (o : System) (buf : ℕ → UInt8) (count position : ℕ) :
    Option System :=
  (ntpFpgaWrite o.driver buf count position).map fun result =>
    { o with driver := result.2, written := true }

def step (logDataSize : ℕ) (o : System) : Event → Option System
  | .open => some { o with files := o.files ++ [⟨0, []⟩] }
  | .read fd count =>
      o.files[fd]?.map fun file =>
        let result := ntpFpgaRead logDataSize o.driver count file.position
        { o with files := o.files.set fd ⟨result.2, file.data ++ result.1⟩ }
  | .pread _ _ => some o
  | .write fd buf count =>
      o.files[fd]?.bind fun file => writeAt o buf count file.position
  | .pwrite buf count position => writeAt o buf count position
  | .interrupt =>
      some { o with
        driver := bufferFullHandler o.driver
        interrupts := o.interrupts + 1
        coalesced := o.coalesced + if o.driver.scheduled then 1 else 0 }
  | .work => (runWork o.driver).map fun driver => { o with driver := driver }
  | .fill logData logData2 =>
      some { o with
        driver := { o.driver with logData := logData, logData2 := logData2 } }

def start (driver : Driver) : System := ⟨driver, [], false, 0, 0⟩

/-! ## Reading and writing -/

theorem ntpFpgaRead_registers (logDataSize : ℕ) (d : Driver) (count : ℕ)
    {fPos : ℕ} (h : fPos ≤ noOfBytes) :
    ntpFpgaRead logDataSize d count fPos =
      (d.registers.bytes fPos (min count (noOfBytes - fPos)),
        fPos + min count (noOfBytes - fPos)) := by
  rw [ntpFpgaRead, if_neg (Nat.not_lt.mpr h)]
  by_cases hend : noOfBytes ≤ fPos
  · have hzero : noOfBytes - fPos = 0 := Nat.sub_eq_zero_of_le hend
    rw [if_pos hend, hzero, Nat.min_zero]
    rfl
  · have hcount : (if noOfBytes - fPos <
        (if count < noOfBytes - fPos then count else noOfBytes) then
          noOfBytes - fPos
        else if count < noOfBytes - fPos then count else noOfBytes) =
        min count (noOfBytes - fPos) := by
      split <;> split <;> omega
    rw [if_neg hend]
    simp only [hcount]

theorem noOfBytesToWrite_of_le (count : ℕ) {fPos : ℕ} (h : fPos ≤ noOfBytes) :
    noOfBytesToWrite count fPos = min count (noOfBytes - fPos) := by
  have hsize : noOfBytes = 128 := rfl
  have hcast : (noOfBytes : ℤ) - fPos = (noOfBytes - fPos : ℕ) := by omega
  have hsmall : noOfBytes - fPos < 2 ^ 32 := by omega
  rw [noOfBytesToWrite, hcast, CInt.toSize_natCast hsmall]
  split <;> split <;> omega

/-- Any other position: the count does not matter. -/
theorem noOfBytesToWrite_of_lt (count : ℕ) {fPos : ℕ} (h : noOfBytes < fPos) :
    noOfBytesToWrite count fPos =
      if fPos % 2 ^ 32 ≤ noOfBytes then noOfBytes - fPos % 2 ^ 32
      else 2 ^ 32 + noOfBytes - fPos % 2 ^ 32 := by
  have hsize : noOfBytes = 128 := rfl
  have hgreater : ((if count ≤ noOfBytes then count else noOfBytes : ℕ) : ℤ) >
      noOfBytes - fPos := by
    omega
  rw [noOfBytesToWrite]
  simp only [if_pos hgreater]
  rw [CInt.toSize, hsize]
  split <;> omega

/-- A write stays within `tmp` exactly when the lower half of the position is in
the registers, and then it stays there, too. -/
theorem ntpFpgaWrite_eq (d : Driver) (buf : ℕ → UInt8) (count fPos : ℕ) :
    ntpFpgaWrite d buf count fPos =
      if fPos % 2 ^ 32 ≤ noOfBytes then
        some (noOfBytesToWrite count fPos, { d with
          registers := d.registers.write (fPos % 2 ^ 32)
            (noOfBytesToWrite count fPos) buf })
      else none := by
  have hsize : noOfBytes = 128 := rfl
  have hiff : noOfBytes < noOfBytesToWrite count fPos ↔
      ¬ fPos % 2 ^ 32 ≤ noOfBytes := by
    by_cases hle : fPos ≤ noOfBytes
    · rw [noOfBytesToWrite_of_le count hle]
      omega
    · rw [noOfBytesToWrite_of_lt count (Nat.not_le.mp hle)]
      split <;> omega
  rw [ntpFpgaWrite]
  simp only [hiff, ite_not]

theorem noOfBytesToWrite_le (count : ℕ) {fPos : ℕ}
    (h : fPos % 2 ^ 32 ≤ noOfBytes) :
    fPos % 2 ^ 32 + noOfBytesToWrite count fPos ≤ noOfBytes := by
  have hsize : noOfBytes = 128 := rfl
  by_cases hle : fPos ≤ noOfBytes
  · rw [noOfBytesToWrite_of_le count hle]
    omega
  · rw [noOfBytesToWrite_of_lt count (Nat.not_le.mp hle), if_pos h]
    omega

/-! ## What processes read and write -/

theorem length_settings : settings.length = 44 := by decide

/-- The settings replace the addresses of the log buffers. -/
theorem registers_ntpFpgaInit (order : ByteOrder)
    (logAddress logAddress2 : UInt32)
    (registers logData logData2 : ByteMemory) :
    (ntpFpgaInit order logAddress logAddress2 registers logData
        logData2).registers =
      registers.write 0 44 fun k => settings.getD k 0 := by
  simp only [ntpFpgaInit, setupNtp, setupBuffer, length_settings]
  rw [ByteMemory.write_write _ _ _ (by decide) (by decide),
    ByteMemory.write_write _ _ _ (by decide) (by decide)]

/-- What a file has read is the beginning of the settings and of the registers
behind them, unless something has been written. -/
def contentsAfterInit (registers : ByteMemory) : List UInt8 :=
  settings ++ registers.bytes 44 (noOfBytes - 44)

/-- What holds of the files and the registers, when the driver has been loaded
with the given contents of the registers. -/
structure ReadsRegisters (logDataSize : ℕ) (registers : ByteMemory)
    (o : System) : Prop where
  position_le : ∀ file ∈ o.files,
    file.position ≤ noOfBytes ∧ file.data.length = file.position
  data_eq : o.written = false → ∀ file ∈ o.files,
    file.data = (contentsAfterInit registers).take file.position
  registers_eq : ∀ a, noOfBytes ≤ a → o.driver.registers a = registers a
  write : ∀ fd buf count, fd < o.files.length →
    ∃ o', step logDataSize o (.write fd buf count) = some o' ∧
      o'.files = o.files
  pwrite : ∀ buf count position,
    (∃ o', step logDataSize o (.pwrite buf count position) = some o') ↔
      position % 2 ^ 32 ≤ noOfBytes

/-- The invariant of the files, with the contents of the registers after
`ntp_fpga_init`. -/
structure FilesInv (registers : ByteMemory) (o : System) : Prop where
  position_le : ∀ file ∈ o.files,
    file.position ≤ noOfBytes ∧ file.data.length = file.position
  registers_eq : ∀ a, noOfBytes ≤ a → o.driver.registers a = registers a
  unwritten : o.written = false → o.driver.registers = registers ∧
    ∀ file ∈ o.files, file.data = registers.bytes 0 file.position

theorem filesInv_start (driver : Driver) :
    FilesInv driver.registers (start driver) where
  position_le := fun _ h => absurd h List.not_mem_nil
  registers_eq := fun _ _ => rfl
  unwritten := fun _ => ⟨rfl, fun _ h => absurd h List.not_mem_nil⟩

variable {logDataSize : ℕ} {registers : ByteMemory} {o o' : System}

theorem FilesInv.unchanged (h : FilesInv registers o)
    (hfiles : o'.files = o.files)
    (hregisters : o'.driver.registers = o.driver.registers)
    (hwritten : o'.written = o.written) : FilesInv registers o' := by
  refine ⟨?_, ?_, ?_⟩
  · rw [hfiles]
    exact h.position_le
  · rw [hregisters]
    exact h.registers_eq
  · rw [hfiles, hregisters, hwritten]
    exact h.unwritten

theorem filesInv_open (h : FilesInv registers o) :
    FilesInv registers { o with files := o.files ++ [⟨0, []⟩] } := by
  refine ⟨fun file hfile => ?_, h.registers_eq, fun hwritten => ?_⟩
  · rcases List.mem_append.mp hfile with hfile | hfile
    · exact h.position_le file hfile
    · rw [List.mem_singleton.mp hfile]
      exact ⟨Nat.zero_le _, rfl⟩
  · obtain ⟨hregisters, hdata⟩ := h.unwritten hwritten
    refine ⟨hregisters, fun file hfile => ?_⟩
    rcases List.mem_append.mp hfile with hfile | hfile
    · exact hdata file hfile
    · rw [List.mem_singleton.mp hfile]
      rfl

/-- A read goes on where the last one has ended, up to the end of the
registers. -/
theorem filesInv_read (h : FilesInv registers o) {fd count : ℕ}
    (hstep : step logDataSize o (.read fd count) = some o') :
    FilesInv registers o' := by
  obtain ⟨file, hfile, rfl⟩ := Option.map_eq_some_iff.mp hstep
  have hmem := List.mem_of_getElem? hfile
  obtain ⟨hle, hlength⟩ := h.position_le file hmem
  rw [ntpFpgaRead_registers logDataSize o.driver count hle]
  refine ⟨fun file' hfile' => ?_, h.registers_eq, fun hwritten => ?_⟩
  · rcases List.mem_or_eq_of_mem_set hfile' with hfile' | rfl
    · exact h.position_le file' hfile'
    · dsimp only
      rw [List.length_append, ByteMemory.length_bytes, hlength]
      omega
  · obtain ⟨hregisters, hdata⟩ := h.unwritten hwritten
    refine ⟨hregisters, fun file' hfile' => ?_⟩
    rcases List.mem_or_eq_of_mem_set hfile' with hfile' | rfl
    · exact hdata file' hfile'
    · dsimp only
      rw [hdata file hmem, hregisters, ByteMemory.bytes_add, Nat.zero_add]

theorem filesInv_writeAt (h : FilesInv registers o) {buf : ℕ → UInt8}
    {count position : ℕ} (hstep : writeAt o buf count position = some o') :
    FilesInv registers o' := by
  obtain ⟨result, hwrite, rfl⟩ := Option.map_eq_some_iff.mp hstep
  rw [ntpFpgaWrite_eq] at hwrite
  split at hwrite
  · next hinside =>
      obtain rfl := Option.some.inj hwrite
      have hend := noOfBytesToWrite_le count hinside
      refine ⟨h.position_le, fun a ha => ?_, nofun⟩
      rw [← h.registers_eq a ha]
      exact ByteMemory.write_of_outside _ _ (Or.inr (Nat.le_trans hend ha))
  · cases hwrite

theorem filesInv_step (h : FilesInv registers o) {e : Event}
    (hstep : step logDataSize o e = some o') : FilesInv registers o' := by
  cases e with
  | «open» => exact Option.some.inj hstep ▸ filesInv_open h
  | read fd count => exact filesInv_read h hstep
  | pread count position => exact Option.some.inj hstep ▸ h
  | write fd buf count =>
      obtain ⟨file, -, hwrite⟩ := Option.bind_eq_some_iff.mp hstep
      exact filesInv_writeAt h hwrite
  | pwrite buf count position => exact filesInv_writeAt h hstep
  | interrupt => exact Option.some.inj hstep ▸ h.unchanged rfl rfl rfl
  | work =>
      obtain ⟨driver, hwork, rfl⟩ := Option.map_eq_some_iff.mp hstep
      have hregisters : driver.registers = o.driver.registers := by
        rw [runWork] at hwork
        split at hwork
        · exact Option.some.inj hwork ▸ rfl
        · cases hwork
      exact h.unchanged rfl hregisters rfl
  | fill logData logData2 =>
      exact Option.some.inj hstep ▸ h.unchanged rfl rfl rfl

theorem bytes_registers (registers : ByteMemory) {n : ℕ} (h : n ≤ noOfBytes) :
    (registers.write 0 44 fun k => settings.getD k 0).bytes 0 n =
      (contentsAfterInit registers).take n := by
  have hsize : noOfBytes = 44 + (noOfBytes - 44) := by decide
  have hsettings : (registers.write 0 44 fun k => settings.getD k 0).bytes 0
      44 = settings := by
    have hall : (List.range 44).map (fun k => settings.getD k 0) = settings :=
      by decide
    refine Eq.trans (List.map_congr_left fun k hk => ?_) hall
    exact ByteMemory.write_of_inside _ _ (List.mem_range.mp hk)
  have hrest : (registers.write 0 44 fun k => settings.getD k 0).bytes (0 + 44)
      (noOfBytes - 44) = registers.bytes 44 (noOfBytes - 44) :=
    ByteMemory.bytes_congr fun k _ =>
      ByteMemory.write_of_outside _ _ (by omega)
  have hall : (registers.write 0 44 fun k => settings.getD k 0).bytes 0
      noOfBytes = contentsAfterInit registers := by
    rw [hsize, ByteMemory.bytes_add, hsettings, hrest, contentsAfterInit]
  rw [← hall, ByteMemory.take_bytes _ _ h]

theorem readsRegisters_of_inv
    (h : FilesInv (registers.write 0 44 fun k => settings.getD k 0) o) :
    ReadsRegisters logDataSize registers o := by
  have hwrite : ∀ buf count position,
      (∃ o', writeAt o buf count position = some o') ↔
        position % 2 ^ 32 ≤ noOfBytes := by
    intro buf count position
    rw [writeAt, ntpFpgaWrite_eq]
    split
    · next hinside => exact iff_of_true ⟨_, rfl⟩ hinside
    · next houtside =>
        refine iff_of_false ?_ houtside
        rintro ⟨o', ho'⟩
        cases ho'
  refine ⟨h.position_le, fun hwritten file hfile => ?_, fun a ha => ?_, ?_,
    hwrite⟩
  · rw [(h.unwritten hwritten).2 file hfile,
      bytes_registers registers (h.position_le file hfile).1]
  · rw [h.registers_eq a ha]
    exact ByteMemory.write_of_outside _ _ (Or.inr (Nat.le_trans (by decide) ha))
  · intro fd buf count hfd
    have hfile := List.getElem?_eq_getElem hfd
    have hle := (h.position_le _ (List.getElem_mem hfd)).1
    obtain ⟨o', ho'⟩ := (hwrite buf count o.files[fd].position).mpr
      (Nat.le_trans (Nat.mod_le _ _) hle)
    refine ⟨o', ?_, ?_⟩
    · rw [step, hfile, Option.bind_some, ho']
    · obtain ⟨result, -, rfl⟩ := Option.map_eq_some_iff.mp ho'
      rfl

/-- In every run of the processes, the interrupts and the work queue. -/
theorem files_read_registers (order : ByteOrder)
    (logAddress logAddress2 : UInt32)
    (registers logData logData2 : ByteMemory) (logDataSize : ℕ)
    (events : List Event) :
    EachState (step logDataSize) (ReadsRegisters logDataSize registers)
      (start (ntpFpgaInit order logAddress logAddress2 registers logData
        logData2)) events := by
  have hstart := filesInv_start
    (ntpFpgaInit order logAddress logAddress2 registers logData logData2)
  rw [registers_ntpFpgaInit] at hstart
  exact (eachState_of_eachStep (fun _ _ _ h _ hstep => filesInv_step h hstep)
    hstart (EachStep.of_forall (fun _ _ => trivial) _ events)).mono
    fun _ h => readsRegisters_of_inv h

/-! ## The log buffers -/

theorem ntpFpgaRead_log {logDataSize : ℕ} (d : Driver) (count : ℕ)
    {fPos : ℕ} (h : noOfBytes < fPos) (hlt : fPos < logDataSize) :
    (ntpFpgaRead logDataSize d count fPos).1 =
      (d.log (currentLog d)).bytes 0 (min count (logDataSize - fPos)) := by
  have hcount : (if logDataSize - fPos <
      (if count < logDataSize then count else logDataSize) then
        logDataSize - fPos
      else if count < logDataSize then count else logDataSize) =
      min count (logDataSize - fPos) := by
    split <;> split <;> omega
  rw [ntpFpgaRead, if_pos h, if_neg (Nat.not_le.mpr hlt)]
  simp only [hcount]

/-- The buffer that the peripheral fills: it begins with the first one, and goes
on to the other one with every interrupt. -/
def filledLog (interrupts : ℕ) : LogBuffer :=
  if interrupts % 2 = 0 then .logData else .logData2

/-- A switch of the buffers that is still to be made. -/
def pending (d : Driver) : ℕ := if d.scheduled then 1 else 0

/-- The log is read from the buffer that is not being filled exactly when the
interrupts that have found the work scheduled, and the work that is scheduled,
are an even number. -/
def IdleBuffer (logDataSize : ℕ) (o : System) : Prop :=
  (currentLog o.driver ≠ filledLog o.interrupts ↔
      2 ∣ o.coalesced + pending o.driver) ∧
    ∀ count position, noOfBytes < position → position < logDataSize →
      (ntpFpgaRead logDataSize o.driver count position).1 =
        (o.driver.log (currentLog o.driver)).bytes 0
          (min count (logDataSize - position))

/-- The buffers have been switched for all other interrupts. -/
def Switches (o : System) : Prop :=
  o.driver.currentBuffer =
    ((o.interrupts + o.coalesced + pending o.driver) % 2 : ℕ)

/-- An interrupt is coalesced or schedules a switch. -/
theorem Switches.interrupt (h : Switches o) :
    Switches { o with
      driver := bufferFullHandler o.driver
      interrupts := o.interrupts + 1
      coalesced := o.coalesced + if o.driver.scheduled then 1 else 0 } := by
  have hpending : pending (bufferFullHandler o.driver) = 1 := rfl
  have hbuffer : (bufferFullHandler o.driver).currentBuffer =
      o.driver.currentBuffer := rfl
  rw [Switches, pending] at h
  simp only [Switches, hpending, hbuffer]
  split at h
  · next hscheduled =>
      rw [hscheduled, if_pos rfl]
      omega
  · next hscheduled =>
      rw [if_neg hscheduled]
      omega

theorem Switches.work (h : Switches o) {driver : Driver}
    (hwork : runWork o.driver = some driver) :
    Switches { o with driver := driver } := by
  rw [runWork] at hwork
  split at hwork
  · next hscheduled =>
      obtain rfl := Option.some.inj hwork
      rw [Switches, pending, if_pos hscheduled] at h
      change (o.driver.currentBuffer + 1).tmod 2 =
        ((o.interrupts + o.coalesced + 0) % 2 : ℕ)
      rw [h, Int.tmod_eq_emod_of_nonneg (by omega)]
      omega
  · cases hwork

theorem switches_writeAt (h : Switches o) {buf : ℕ → UInt8}
    {count position : ℕ} (hstep : writeAt o buf count position = some o') :
    Switches o' := by
  obtain ⟨result, hwrite, rfl⟩ := Option.map_eq_some_iff.mp hstep
  rw [ntpFpgaWrite_eq] at hwrite
  split at hwrite
  · obtain rfl := Option.some.inj hwrite
    exact h
  · cases hwrite

theorem switches_step (h : Switches o) {e : Event}
    (hstep : step logDataSize o e = some o') : Switches o' := by
  cases e with
  | «open» | pread | fill => exact Option.some.inj hstep ▸ h
  | read fd count =>
      obtain ⟨file, -, rfl⟩ := Option.map_eq_some_iff.mp hstep
      exact h
  | write fd buf count =>
      obtain ⟨file, -, hwrite⟩ := Option.bind_eq_some_iff.mp hstep
      exact switches_writeAt h hwrite
  | pwrite buf count position => exact switches_writeAt h hstep
  | interrupt =>
      obtain rfl := Option.some.inj hstep
      exact h.interrupt
  | work =>
      obtain ⟨driver, hwork, rfl⟩ := Option.map_eq_some_iff.mp hstep
      exact h.work hwork

theorem idleBuffer_of_switches (h : Switches o) :
    IdleBuffer logDataSize o := by
  refine ⟨?_, fun count position hlo hhi =>
    ntpFpgaRead_log o.driver count hlo hhi⟩
  rw [Switches] at h
  have hcurrent : o.driver.currentBuffer = 1 ↔
      (o.interrupts + o.coalesced + pending o.driver) % 2 = 1 := by
    omega
  simp only [currentLog, filledLog, hcurrent]
  split <;> split <;> simp <;> omega

/-- In every order of reads, writes, interrupts and work. -/
theorem idle_buffer_iff (order : ByteOrder) (logAddress logAddress2 : UInt32)
    (registers logData logData2 : ByteMemory) (logDataSize : ℕ)
    (events : List Event) :
    EachState (step logDataSize) (IdleBuffer logDataSize)
      (start (ntpFpgaInit order logAddress logAddress2 registers logData
        logData2)) events := by
  have hstart : Switches (start (ntpFpgaInit order logAddress logAddress2
      registers logData logData2)) := rfl
  exact (eachState_of_eachStep (fun _ _ _ h _ hstep => switches_step h hstep)
    hstart (EachStep.of_forall (fun _ _ => trivial) _ events)).mono
    fun _ h => idleBuffer_of_switches h

end NetworkExperiments.MemoryAllocator.DemoDriver
