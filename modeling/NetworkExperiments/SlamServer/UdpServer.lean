import NetworkExperiments.SlamServer.SharedMemory
import NetworkExperiments.Support.ByteOrder
import NetworkExperiments.Support.CInt

/-!
# The UDP server of the slam_sensor_server program

`UdpServer::send_data` sends the data of a region as datagrams with a header of
two `int`s, the camera and a running number, and up to 1500 data bytes.  It
advances by what `send_to` returns, which counts the header, in arithmetic that
mixes `ssize_t`, `size_t` and `int`.

The loop is modelled with a bound on the number of its iterations.
`sendData_complete` shows that the bound is not reached as long as every call
sends something of the data, and that all the data is then sent, in order.
-/

namespace NetworkExperiments.SlamServer

namespace UdpServer

/-- `MAX_PAKET_SIZE`. -/
def maxPaketSize : ℕ := 1500

/-- `sizeof(header)`. -/
def sizeofHeader : ℕ := 8

/-- A call of `send_to`: the two words of the header, the data bytes offered
after it, and the number of bytes that were sent. -/
structure Datagram where
  cam : ℤ
  number : ℤ
  payload : List UInt8
  len : ℤ
  deriving DecidableEq, Repr

/-- The bytes that arrive at the receiver. -/
def Datagram.bytes (order : ByteOrder) (d : Datagram) : List UInt8 :=
  (order.storeInt d.cam ++ (order.storeInt d.number ++ d.payload)).take
    d.len.toNat

/-- The data bytes among those that have been sent. -/
def Datagram.sent (d : Datagram) : List UInt8 :=
  d.payload.take (d.len - sizeofHeader).toNat

/-- The variables of the loop: `curpos`, `remlen`, `sendlen` and
`header[1]`. -/
structure Cursor where
  curpos : ℕ
  remlen : ℕ
  sendlen : ℕ
  number : ℤ
  deriving DecidableEq, Repr

/-- The variables before the loop, on a machine with a `size_t` of `bits`
bits. -/
def start (bits : ℕ) (data : SharedMemory) : Cursor where
  curpos := data.data
  remlen := CInt.toSize bits data.size
  sendlen := CInt.toSize bits (min data.size maxPaketSize)
  number := 0

/-- The variables after `send_to` has returned `len`. -/
def advance (bits : ℕ) (cursor : Cursor) (len : ℤ) : Cursor :=
  let sent := CInt.toSize bits (len - sizeofHeader)
  let remlen := CInt.toSize bits (cursor.remlen - sent)
  { curpos := cursor.curpos + sent
    remlen := remlen
    sendlen := CInt.toSize bits (min (CInt.toInt remlen) maxPaketSize)
    number := CInt.toInt (cursor.number + 1) }

/-- Up to `fuel` iterations of the loop, the first of which is the `k`-th of
the call.  `sendTo k n` is the result of the `k`-th `send_to`, which offers `n`
bytes.  There is no result when the loop needs more iterations. -/
def sendLoop (bits : ℕ) (memory : ByteMemory) (sendTo : ℕ → ℕ → ℤ) (cam : ℤ) :
    ℕ → ℕ → Cursor → Option (List Datagram)
  | 0, _, _ => none
  | fuel + 1, k, cursor =>
      if cursor.remlen = 0 then some []
      else
        let len := sendTo k (sizeofHeader + cursor.sendlen)
        let datagram : Datagram :=
          { cam := cam
            number := cursor.number
            payload := memory.bytes cursor.curpos cursor.sendlen
            len := len }
        if len = -1 then some [datagram]
        else
          (sendLoop bits memory sendTo cam fuel (k + 1)
            (advance bits cursor len)).map (datagram :: ·)

/-- The iterations of `sendLoop`: the variables at the start of each, and its
call of `send_to`. -/
def iterations (bits : ℕ) (memory : ByteMemory) (sendTo : ℕ → ℕ → ℤ)
    (cam : ℤ) : ℕ → ℕ → Cursor → Option (List (Cursor × Datagram))
  | 0, _, _ => none
  | fuel + 1, k, cursor =>
      if cursor.remlen = 0 then some []
      else
        let len := sendTo k (sizeofHeader + cursor.sendlen)
        let datagram : Datagram :=
          { cam := cam
            number := cursor.number
            payload := memory.bytes cursor.curpos cursor.sendlen
            len := len }
        if len = -1 then some [(cursor, datagram)]
        else
          (iterations bits memory sendTo cam fuel (k + 1)
            (advance bits cursor len)).map ((cursor, datagram) :: ·)

theorem sendLoop_eq_iterations (bits : ℕ) (memory : ByteMemory)
    (sendTo : ℕ → ℕ → ℤ) (cam : ℤ) (fuel k : ℕ) (cursor : Cursor) :
    sendLoop bits memory sendTo cam fuel k cursor =
      (iterations bits memory sendTo cam fuel k cursor).map
        (List.map Prod.snd) := by
  induction fuel generalizing k cursor with
  | zero => rfl
  | succ fuel ih =>
      rw [sendLoop, iterations]
      split
      · rfl
      · simp only [ih]
        split
        · rfl
        · simp only [Option.map_map]
          rfl

/-- `send_data`.  An iteration for each byte, and the last test of the loop,
are enough when every datagram takes some of the data. -/
def sendData (bits : ℕ) (memory : ByteMemory) (sendTo : ℕ → ℕ → ℤ) (cam : ℤ)
    (data : SharedMemory) : Option (List Datagram) :=
  sendLoop bits memory sendTo cam (data.size + 1) 0 (start bits data)

/-- Every call of `send_to` sends the header and some of the data offered. -/
def Progresses (sendTo : ℕ → ℕ → ℤ) : Prop :=
  ∀ k n, sizeofHeader < n → (sizeofHeader : ℤ) < sendTo k n ∧ sendTo k n ≤ n

/-- Every call of `send_to` sends the whole datagram. -/
def sendWhole : ℕ → ℕ → ℤ := fun _ n => n

theorem progresses_sendWhole : Progresses sendWhole := by
  intro _ n hn
  exact ⟨Int.ofNat_lt.mpr hn, Int.le_refl n⟩

/-! ## The loop without wrap-around -/

/-- The variables when `offset` of the `size` bytes have been sent in `k`
datagrams. -/
def cursorAt (base size offset k : ℕ) : Cursor where
  curpos := base + offset
  remlen := size - offset
  sendlen := min (size - offset) maxPaketSize
  number := k

variable {bits : ℕ}

theorem start_eq (hbits : 32 ≤ bits) {data : SharedMemory}
    (hsize : data.size < 2 ^ 31) :
    start bits data = cursorAt data.data data.size 0 0 := by
  have hpow : (2 : ℕ) ^ 32 ≤ 2 ^ bits := Nat.pow_le_pow_right (by decide) hbits
  have hmin : (min (data.size : ℤ) (maxPaketSize : ℤ)) =
      ((min data.size maxPaketSize : ℕ) : ℤ) := by
    omega
  rw [start, hmin, CInt.toSize_natCast (by omega),
    CInt.toSize_natCast (by omega)]
  rfl

theorem advance_cursorAt (hbits : 32 ≤ bits) {base size offset k m : ℕ}
    (hsize : size < 2 ^ 31) (hk : k < size) (hm : offset + m ≤ size) :
    advance bits (cursorAt base size offset k)
        ((sizeofHeader : ℤ) + (m : ℤ)) =
      cursorAt base size (offset + m) (k + 1) := by
  have hpow : (2 : ℕ) ^ 32 ≤ 2 ^ bits := Nat.pow_le_pow_right (by decide) hbits
  have hsent : CInt.toSize bits
      ((sizeofHeader : ℤ) + (m : ℤ) - (sizeofHeader : ℤ)) = m := by
    rw [Int.add_comm, Int.add_sub_cancel, CInt.toSize_natCast (by omega)]
  have hremlen : CInt.toSize bits
      (((size - offset : ℕ) : ℤ) - (m : ℤ)) = size - (offset + m) := by
    have hcast : ((size - offset : ℕ) : ℤ) - (m : ℤ) =
        ((size - (offset + m) : ℕ) : ℤ) := by
      omega
    rw [hcast, CInt.toSize_natCast (by omega)]
  have hsendlen : CInt.toSize bits
      (min (CInt.toInt ((size - (offset + m) : ℕ) : ℤ)) (maxPaketSize : ℤ)) =
      min (size - (offset + m)) maxPaketSize := by
    have hmin : min ((size - (offset + m) : ℕ) : ℤ) (maxPaketSize : ℤ) =
        ((min (size - (offset + m)) maxPaketSize : ℕ) : ℤ) := by
      omega
    rw [CInt.toInt_eq_self (by omega) (by omega), hmin,
      CInt.toSize_natCast (by omega)]
  have hnumber : CInt.toInt ((k : ℤ) + 1) = ((k + 1 : ℕ) : ℤ) := by
    rw [CInt.toInt_eq_self (by omega) (by omega)]
    omega
  simp only [advance, cursorAt, hsent, hremlen, hsendlen, hnumber,
    Nat.add_assoc]

/-- The iteration at `cursorAt` when `m` bytes of the data are sent. -/
def iterationAt (memory : ByteMemory) (cam : ℤ) (base size offset k m : ℕ) :
    Cursor × Datagram :=
  (cursorAt base size offset k,
    { cam := cam
      number := k
      payload := memory.bytes (base + offset)
        (min (size - offset) maxPaketSize)
      len := (sizeofHeader : ℤ) + (m : ℤ) })

theorem iterations_succ (hbits : 32 ≤ bits) (memory : ByteMemory)
    {sendTo : ℕ → ℕ → ℤ} (cam : ℤ) {fuel base size offset k m : ℕ}
    (hsize : size < 2 ^ 31) (hk : k < size) (hoffset : offset < size)
    (hm : offset + m ≤ size)
    (hlen : sendTo k (sizeofHeader + min (size - offset) maxPaketSize) =
      (sizeofHeader : ℤ) + (m : ℤ)) :
    iterations bits memory sendTo cam (fuel + 1) k
        (cursorAt base size offset k) =
      (iterations bits memory sendTo cam fuel (k + 1)
        (cursorAt base size (offset + m) (k + 1))).map
        (iterationAt memory cam base size offset k m :: ·) := by
  have hremlen : ¬ (cursorAt base size offset k).remlen = 0 := by
    change ¬ size - offset = 0
    omega
  have hsent : ¬ (sizeofHeader : ℤ) + (m : ℤ) = -1 := by omega
  have hlen' : sendTo k
      (sizeofHeader + (cursorAt base size offset k).sendlen) =
        (sizeofHeader : ℤ) + (m : ℤ) := hlen
  rw [iterations, if_neg hremlen]
  simp only [hlen', if_neg hsent]
  rw [advance_cursorAt hbits hsize hk hm]
  rfl

theorem iterations_end (memory : ByteMemory) (sendTo : ℕ → ℕ → ℤ) (cam : ℤ)
    (fuel base size k : ℕ) :
    iterations bits memory sendTo cam (fuel + 1) k
      (cursorAt base size size k) = some [] := by
  simp [iterations, cursorAt]

theorem sendLoop_succ (hbits : 32 ≤ bits) (memory : ByteMemory)
    {sendTo : ℕ → ℕ → ℤ} (cam : ℤ) {fuel base size offset k m : ℕ}
    (hsize : size < 2 ^ 31) (hk : k < size) (hoffset : offset < size)
    (hm : offset + m ≤ size)
    (hlen : sendTo k (sizeofHeader + min (size - offset) maxPaketSize) =
      (sizeofHeader : ℤ) + (m : ℤ)) :
    sendLoop bits memory sendTo cam (fuel + 1) k
        (cursorAt base size offset k) =
      (sendLoop bits memory sendTo cam fuel (k + 1)
        (cursorAt base size (offset + m) (k + 1))).map
        ((iterationAt memory cam base size offset k m).2 :: ·) := by
  simp only [sendLoop_eq_iterations, Option.map_map,
    iterations_succ hbits memory cam hsize hk hoffset hm hlen]
  rfl

theorem sendLoop_end (memory : ByteMemory) (sendTo : ℕ → ℕ → ℤ) (cam : ℤ)
    (fuel base size k : ℕ) :
    sendLoop bits memory sendTo cam (fuel + 1) k (cursorAt base size size k) =
      some [] := by
  rw [sendLoop_eq_iterations, iterations_end]
  rfl

/-! ## What is sent -/

/-- The number of datagrams for `n` bytes. -/
def fragmentCount (n : ℕ) : ℕ := (n + (maxPaketSize - 1)) / maxPaketSize

theorem maxPaketSize_pos : 0 < maxPaketSize := by decide

@[simp] theorem fragmentCount_zero : fragmentCount 0 = 0 := rfl

/-- A fragment takes `maxPaketSize` bytes, or what is left. -/
theorem fragmentCount_of_pos {n : ℕ} (h : 0 < n) :
    fragmentCount n = fragmentCount (n - min n maxPaketSize) + 1 := by
  have hmax := maxPaketSize_pos
  by_cases hle : n ≤ maxPaketSize
  · rw [Nat.min_eq_left hle, Nat.sub_self, fragmentCount_zero, fragmentCount]
    exact Nat.div_eq_of_lt_le (by omega) (by omega)
  · have hmin : min n maxPaketSize = maxPaketSize :=
      Nat.min_eq_right (by omega)
    have hsum : n + (maxPaketSize - 1) =
        n - maxPaketSize + (maxPaketSize - 1) + maxPaketSize := by omega
    rw [hmin, fragmentCount, hsum, Nat.add_div_right _ hmax, fragmentCount]

theorem fragmentCount_le (n : ℕ) : fragmentCount n ≤ n := by
  induction n using Nat.strong_induction_on with
  | h n ih =>
      rcases Nat.eq_zero_or_pos n with rfl | hpos
      · exact Nat.le_refl 0
      · have hmax := maxPaketSize_pos
        have hrest := ih (n - min n maxPaketSize) (by omega)
        rw [fragmentCount_of_pos hpos]
        omega

/-- Datagrams for camera `cam`, numbered from `k`, that carry `bytes`. -/
structure Carries (cam : ℤ) (k : ℕ) (bytes : List UInt8)
    (datagrams : List Datagram) : Prop where
  cam_eq : ∀ d ∈ datagrams, d.cam = cam
  numbers_eq : datagrams.map Datagram.number =
    (List.range' k datagrams.length).map fun n : ℕ => (n : ℤ)
  bytes_eq : datagrams.flatMap Datagram.sent = bytes

theorem carries_nil (cam : ℤ) (k : ℕ) : Carries cam k [] [] :=
  ⟨fun _ h => absurd h List.not_mem_nil, rfl, rfl⟩

theorem Carries.cons {cam : ℤ} {k : ℕ} {bytes : List UInt8}
    {datagrams : List Datagram} (h : Carries cam (k + 1) bytes datagrams)
    {d : Datagram} (hcam : d.cam = cam) (hnumber : d.number = k) :
    Carries cam k (d.sent ++ bytes) (d :: datagrams) := by
  refine ⟨List.forall_mem_cons.mpr ⟨hcam, h.cam_eq⟩, ?_, ?_⟩
  · rw [List.map_cons, hnumber, h.numbers_eq, List.length_cons,
      List.range'_succ, List.map_cons]
  · rw [List.flatMap_cons, h.bytes_eq]

/-- What every iteration over `size` bytes at `base` offers to `send_to`: some
of the bytes that remain, `remlen` being the number of these. -/
structure Offers (base size : ℕ) (i : Cursor × Datagram) : Prop where
  sendlen_pos : 1 ≤ i.1.sendlen
  sendlen_le : i.1.sendlen ≤ maxPaketSize
  length_payload : i.2.payload.length = i.1.sendlen
  curpos_ge : base ≤ i.1.curpos
  curpos_add_le : i.1.curpos + i.1.sendlen ≤ base + size
  remlen_eq : i.1.curpos + i.1.remlen = base + size
  len_pos : (sizeofHeader : ℤ) < i.2.len
  len_le : i.2.len - sizeofHeader ≤ i.1.remlen

/-- The whole datagram was sent. -/
def IsWhole (i : Cursor × Datagram) : Prop :=
  i.2.len = (sizeofHeader : ℤ) + (i.1.sendlen : ℤ)

/-- Iterations that send the `size - offset` bytes from `offset` on. -/
structure Completes (memory : ByteMemory) (cam : ℤ) (base size offset k : ℕ)
    (is : List (Cursor × Datagram)) : Prop where
  offers : ∀ i ∈ is, Offers base size i
  carries : Carries cam k (memory.bytes (base + offset) (size - offset))
    (is.map Prod.snd)
  length_eq : (∀ i ∈ is, IsWhole i) →
    is.length = fragmentCount (size - offset)

theorem completes_nil (memory : ByteMemory) (cam : ℤ) (base size k : ℕ) :
    Completes memory cam base size size k [] := by
  refine ⟨fun _ h => absurd h List.not_mem_nil, ?_, fun _ => ?_⟩
  · rw [Nat.sub_self, ByteMemory.bytes_zero]
    exact carries_nil cam k
  · rw [Nat.sub_self]
    rfl

/-- An iteration that sends `m` bytes before iterations that send the rest. -/
theorem Completes.cons {memory : ByteMemory} {cam : ℤ}
    {base size offset k m : ℕ} {is : List (Cursor × Datagram)}
    (h : Completes memory cam base size (offset + m) (k + 1) is)
    (hpos : 0 < m) (hle : m ≤ min (size - offset) maxPaketSize) :
    Completes memory cam base size offset k
      (iterationAt memory cam base size offset k m :: is) := by
  refine ⟨List.forall_mem_cons.mpr ⟨?_, h.offers⟩, ?_, ?_⟩
  · have hmax := maxPaketSize_pos
    constructor <;>
      simp only [iterationAt, cursorAt, ByteMemory.length_bytes] <;> omega
  · have hsent : (iterationAt memory cam base size offset k m).2.sent =
        memory.bytes (base + offset) m := by
      simp only [Datagram.sent, iterationAt, add_sub_cancel_left,
        Int.toNat_natCast]
      exact ByteMemory.take_bytes _ _ hle
    have hsplit : memory.bytes (base + offset) (size - offset) =
        memory.bytes (base + offset) m ++
          memory.bytes (base + (offset + m)) (size - (offset + m)) := by
      have hsum : size - offset = m + (size - (offset + m)) := by omega
      rw [hsum, ByteMemory.bytes_add, Nat.add_assoc]
    rw [hsplit, ← hsent]
    exact h.carries.cons rfl rfl
  · intro hwhole
    obtain ⟨hfirst, hrest⟩ := List.forall_mem_cons.mp hwhole
    have hm : m = min (size - offset) maxPaketSize := by
      change (sizeofHeader : ℤ) + (m : ℤ) = (sizeofHeader : ℤ) +
        ((min (size - offset) maxPaketSize : ℕ) : ℤ) at hfirst
      omega
    have hleft : 0 < size - offset := by omega
    rw [List.length_cons, h.length_eq hrest, fragmentCount_of_pos hleft, ← hm,
      Nat.sub_sub]

/-- From any offset, the loop ends, and its iterations send the rest of the
data. -/
theorem iterations_complete (hbits : 32 ≤ bits) (memory : ByteMemory)
    {sendTo : ℕ → ℕ → ℤ} (hsendTo : Progresses sendTo) (cam : ℤ) (base : ℕ)
    {size : ℕ} (hsize : size < 2 ^ 31) {fuel offset k : ℕ}
    (hoffset : offset ≤ size) (hk : k ≤ offset) (hfuel : size - offset < fuel) :
    ∃ is, iterations bits memory sendTo cam fuel k
        (cursorAt base size offset k) = some is ∧
      Completes memory cam base size offset k is := by
  induction fuel generalizing offset k with
  | zero => exact absurd hfuel (Nat.not_lt_zero _)
  | succ fuel ih =>
      by_cases hend : offset = size
      · subst hend
        exact ⟨[], iterations_end memory sendTo cam fuel base offset k,
          completes_nil memory cam base offset k⟩
      · obtain ⟨m, hlen, hpos, hle⟩ : ∃ m : ℕ,
            sendTo k (sizeofHeader + min (size - offset) maxPaketSize) =
                (sizeofHeader : ℤ) + (m : ℤ) ∧
              0 < m ∧ m ≤ min (size - offset) maxPaketSize := by
          have hn : 0 < min (size - offset) maxPaketSize :=
            Nat.lt_min.mpr ⟨by omega, maxPaketSize_pos⟩
          obtain ⟨hlo, hhi⟩ := hsendTo k
            (sizeofHeader + min (size - offset) maxPaketSize) (by omega)
          exact ⟨(sendTo k (sizeofHeader + min (size - offset) maxPaketSize) -
            sizeofHeader).toNat, by omega, by omega, by omega⟩
        have hnext : offset + m ≤ size := by omega
        obtain ⟨is, hloop, hcompletes⟩ :=
          @ih (offset + m) (k + 1) hnext (by omega) (by omega)
        refine ⟨_, ?_, hcompletes.cons hpos hle⟩
        rw [iterations_succ hbits memory cam hsize (by omega) (by omega) hnext
          hlen, hloop]
        rfl

theorem sendData_iterations (hbits : 32 ≤ bits) (memory : ByteMemory)
    {sendTo : ℕ → ℕ → ℤ} (hsendTo : Progresses sendTo) (cam : ℤ)
    {data : SharedMemory} (hsize : data.size < 2 ^ 31) :
    ∃ is, iterations bits memory sendTo cam (data.size + 1) 0
        (start bits data) = some is ∧
      sendData bits memory sendTo cam data = some (is.map Prod.snd) ∧
      Completes memory cam data.data data.size 0 0 is := by
  obtain ⟨is, hloop, hcompletes⟩ :=
    iterations_complete hbits memory hsendTo cam data.data hsize
      (Nat.zero_le _) (Nat.le_refl _) (Nat.lt_succ_self data.size)
  rw [← start_eq hbits hsize] at hloop
  refine ⟨is, hloop, ?_, hcompletes⟩
  rw [sendData, sendLoop_eq_iterations, hloop]
  rfl

/-- `send_data` terminates; its datagrams are numbered from 0 and together carry
exactly the bytes of the region, whatever part of each `send_to` takes.  Each
offers between 1 and 1500 bytes of the region, and `remlen` is the number of
bytes that remain throughout.  Datagrams that are all sent whole are as few as
possible. -/
theorem sendData_exact (hbits : 32 ≤ bits) (memory : ByteMemory)
    {sendTo : ℕ → ℕ → ℤ} (hsendTo : Progresses sendTo) (cam : ℤ)
    {data : SharedMemory} (hsize : data.size < 2 ^ 31) :
    ∃ is, iterations bits memory sendTo cam (data.size + 1) 0
        (start bits data) = some is ∧
      sendData bits memory sendTo cam data = some (is.map Prod.snd) ∧
      (is.map fun i => (i.2.cam, i.2.number)) =
        (List.range is.length).map (fun k : ℕ => (cam, (k : ℤ))) ∧
      (∀ i ∈ is, Offers data.data data.size i) ∧
      is.flatMap (fun i => i.2.sent) = data.contents memory ∧
      ((∀ i ∈ is, IsWhole i) → is.length = (data.size + 1499) / 1500) := by
  obtain ⟨is, hloop, hdata, hcompletes⟩ :=
    sendData_iterations hbits memory hsendTo cam hsize
  have hcam : ∀ i ∈ is, i.2.cam = cam := fun i hi =>
    hcompletes.carries.cam_eq i.2 (List.mem_map_of_mem hi)
  have hnumbers := hcompletes.carries.numbers_eq
  rw [List.map_map, List.length_map, ← List.range_eq_range'] at hnumbers
  have hheaders : (is.map fun i => (i.2.cam, i.2.number)) =
      (is.map (Datagram.number ∘ Prod.snd)).map (Prod.mk cam) := by
    rw [List.map_map]
    apply List.map_congr_left
    intro i hi
    rw [hcam i hi]
    rfl
  have hbytes := hcompletes.carries.bytes_eq
  rw [List.flatMap_map] at hbytes
  refine ⟨is, hloop, hdata, ?_, hcompletes.offers, hbytes,
    hcompletes.length_eq⟩
  rw [hheaders, hnumbers, List.map_map]
  rfl

theorem sendData_exact_zeroBytes :
    ∃ is : List (Cursor × Datagram),
      sendData 64 (fun _ => 0) sendWhole 0 ⟨0, 1501⟩ =
        some (is.map Prod.snd) ∧
      is.flatMap (fun i => i.2.sent) = List.replicate 1501 0 ∧
      ((∀ i ∈ is, IsWhole i) → is.length = 2) := by
  obtain ⟨is, -, hdata, -, -, hbytes, hlength⟩ :=
    sendData_exact (by decide : 32 ≤ 64) (fun _ => 0) progresses_sendWhole 0
      (by decide : (⟨0, 1501⟩ : SharedMemory).size < 2 ^ 31)
  refine ⟨is, hdata, hbytes.trans ?_, hlength⟩
  exact List.map_const' ..  |>.trans (by simp)

theorem sendData_complete (hbits : 32 ≤ bits) (memory : ByteMemory)
    {sendTo : ℕ → ℕ → ℤ} (hsendTo : Progresses sendTo) (cam : ℤ)
    {data : SharedMemory} (hsize : data.size < 2 ^ 31) :
    ∃ datagrams, sendData bits memory sendTo cam data = some datagrams ∧
      Carries cam 0 (data.contents memory) datagrams := by
  obtain ⟨is, -, hdata, hcompletes⟩ :=
    sendData_iterations hbits memory hsendTo cam hsize
  exact ⟨_, hdata, hcompletes.carries⟩

/-! ## Datagrams that are sent whole -/

/-- The data bytes of datagram `k`. -/
def fragmentData (bytes : List UInt8) (k : ℕ) : List UInt8 :=
  (bytes.drop (maxPaketSize * k)).take maxPaketSize

/-- Datagram `k` of a transfer for camera `cam`. -/
def fragment (cam : ℤ) (bytes : List UInt8) (k : ℕ) : Datagram where
  cam := cam
  number := k
  payload := fragmentData bytes k
  len := (sizeofHeader : ℤ) + ((fragmentData bytes k).length : ℤ)

theorem fragmentData_contents (memory : ByteMemory) (data : SharedMemory)
    {k : ℕ} (hk : maxPaketSize * k ≤ data.size) :
    fragmentData (data.contents memory) k =
      memory.bytes (data.data + maxPaketSize * k)
        (min (data.size - maxPaketSize * k) maxPaketSize) := by
  rw [fragmentData, SharedMemory.contents, ByteMemory.drop_bytes _ _ hk]
  by_cases hlast : data.size - maxPaketSize * k ≤ maxPaketSize
  · rw [Nat.min_eq_left hlast]
    apply List.take_of_length_le
    rw [ByteMemory.length_bytes]
    exact hlast
  · have hle : maxPaketSize ≤ data.size - maxPaketSize * k := by omega
    rw [Nat.min_eq_right hle, ByteMemory.take_bytes _ _ hle]

theorem sendLoop_whole (hbits : 32 ≤ bits) (memory : ByteMemory) (cam : ℤ)
    {data : SharedMemory} (hsize : data.size < 2 ^ 31) {fuel k : ℕ}
    (hfuel : fragmentCount (data.size - maxPaketSize * k) < fuel) :
    sendLoop bits memory sendWhole cam fuel k
        (cursorAt data.data data.size (min (maxPaketSize * k) data.size) k) =
      some ((List.range' k
        (fragmentCount (data.size - maxPaketSize * k))).map
          (fragment cam (data.contents memory))) := by
  induction fuel generalizing k with
  | zero => exact absurd hfuel (Nat.not_lt_zero _)
  | succ fuel ih =>
      by_cases hend : data.size ≤ maxPaketSize * k
      · have hcount : fragmentCount (data.size - maxPaketSize * k) = 0 := by
          rw [Nat.sub_eq_zero_of_le hend, fragmentCount_zero]
        rw [Nat.min_eq_right hend, sendLoop_end, hcount]
        rfl
      · have hoffset : maxPaketSize * k < data.size := Nat.not_le.mp hend
        let m := min (data.size - maxPaketSize * k) maxPaketSize
        have hnext : maxPaketSize * k + m =
            min (maxPaketSize * (k + 1)) data.size := by
          rw [Nat.mul_succ]
          unfold m
          omega
        have hcount : fragmentCount (data.size - maxPaketSize * k) =
            fragmentCount (data.size - maxPaketSize * (k + 1)) + 1 := by
          have hrest : data.size - maxPaketSize * k - m =
              data.size - maxPaketSize * (k + 1) := by
            rw [Nat.mul_succ]
            unfold m
            omega
          rw [fragmentCount_of_pos (Nat.sub_pos_of_lt hoffset), hrest]
        have hk : k < data.size :=
          Nat.lt_of_le_of_lt (Nat.le_mul_of_pos_left k maxPaketSize_pos) hoffset
        have hfragment : fragment cam (data.contents memory) k =
            (iterationAt memory cam data.data data.size
              (maxPaketSize * k) k m).2 := by
          rw [iterationAt, fragment, fragmentData_contents memory data hoffset.le,
            ByteMemory.length_bytes]
        rw [Nat.min_eq_left hoffset.le,
          sendLoop_succ hbits memory cam hsize hk hoffset (by omega) rfl,
          hnext, ih (by omega), hcount, List.range'_succ, List.map_cons,
          hfragment, Option.map_some]

/-- When every datagram is sent whole, `send_data` sends the fragments of the
data. -/
theorem sendData_whole (hbits : 32 ≤ bits) (memory : ByteMemory) (cam : ℤ)
    {data : SharedMemory} (hsize : data.size < 2 ^ 31) :
    sendData bits memory sendWhole cam data =
      some ((List.range (fragmentCount data.size)).map
        (fragment cam (data.contents memory))) := by
  have hfuel : fragmentCount (data.size - maxPaketSize * 0) <
      data.size + 1 :=
    Nat.lt_succ_of_le (fragmentCount_le data.size)
  have hloop := sendLoop_whole hbits memory cam hsize hfuel
  rw [Nat.mul_zero, Nat.zero_min, Nat.sub_zero, ← List.range_eq_range'] at hloop
  rw [sendData, start_eq hbits hsize, hloop]

theorem bytes_fragment (order : ByteOrder) (cam : ℤ) (bytes : List UInt8)
    (k : ℕ) :
    (fragment cam bytes k).bytes order =
      order.storeInt cam ++ (order.storeInt k ++ fragmentData bytes k) := by
  apply List.take_of_length_le
  simp only [List.length_append, ByteOrder.length_storeInt, fragment,
    sizeofHeader]
  omega

end UdpServer

end NetworkExperiments.SlamServer
